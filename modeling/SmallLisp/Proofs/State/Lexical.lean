import SmallLisp.Heap.Naming
import SmallLisp.Proofs.Eval.Bounds
import SmallLisp.Proofs.State.Tree

/-!
# Lexical frames

A symbol stands for what the nearest frame with the symbol binds it to. A frame is seen from another
for a symbol if the way outward comes to it before it comes to any other frame with the symbol. Main
statements: a symbol is found in the frame that binds it and is seen for it (`find?_eq_some_iff`),
binding a symbol in a frame matters to that symbol from where the frame is seen for it, and to
nothing else (`find?_define`, `lookup?_define`), and so the operations on frames obey the laws of
lexical frames (`frames_lexical`).
-/

namespace SmallLisp

namespace Heap

/-- From the first frame, the way outward comes to the second before it comes to another frame that
binds the symbol. -/
inductive Sees (h : Heap) (x : Symbol) : FrameId → FrameId → Prop
  | self (f : FrameId) : h.Sees x f f
  | step {g outer f : FrameId} {frame : Frame} : h.frame? g = some frame →
    frame.binds x = false → frame.outer = some outer → h.Sees x outer f → h.Sees x g f

/-- The frame is there and binds the symbol. -/
def Binds (h : Heap) (f : FrameId) (x : Symbol) : Prop :=
  ∃ frame, h.frame? f = some frame ∧ frame.binds x = true

/-- The second heap is the first with the symbol bound in the frame: in its place if it was bound
there, else behind all others. All other bindings are the same. -/
structure Rebinds (h h' : Heap) (f : FrameId) (x : Symbol) (v : Value) : Prop where
  size : h'.size = h.size
  frames : ∀ g frame, h.frame? g = some frame → ∃ frame', h'.frame? g = some frame' ∧
    frame'.outer = frame.outer ∧
    frame'.names = (if g = f ∧ frame.binds x = false then frame.names ++ [x] else frame.names) ∧
    ∀ y, frame'.get? y = if g = f ∧ y = x then some v else frame.get? y

variable {h : Heap} {f g owner : FrameId} {x y : Symbol}

theorem Binds.lt_size (binds : h.Binds f x) : f < h.size := by
  obtain ⟨frame, there, -⟩ := binds
  exact lt_size_of_frame? there

theorem find?_of_missing (missing : h.frame? g = none) (x : Symbol) : h.find? g x = none := by
  rw [find?, outward?, missing]

theorem find?_of_binds {frame : Frame} (there : h.frame? g = some frame)
    (binds : frame.binds x = true) : h.find? g x = some g := by
  simp only [find?, outward?, there, binds, if_true]

theorem find?_of_outermost {frame : Frame} (there : h.frame? g = some frame)
    (unbound : frame.binds x = false) (outermost : frame.outer = none) : h.find? g x = none := by
  simp [find?, outward?, there, unbound, outermost]

theorem Rooted.find?_of_outer (rooted : h.Rooted) {frame : Frame} {outer : FrameId}
    (there : h.frame? g = some frame) (unbound : frame.binds x = false)
    (off : frame.outer = some outer) : h.find? g x = h.find? outer x := by
  rw [find?, outward?, there]
  simp only [unbound, Bool.false_eq_true, if_false, off]
  exact rooted.outward?_eq (rooted.outer_lt there off)

/-- The frame in which a symbol is found is the nearest with the symbol. -/
theorem find?_eq_some_iff (rooted : h.Rooted) :
    h.find? g x = some owner ↔ h.Sees x g owner ∧ h.Binds owner x := by
  constructor
  · intro found
    refine ⟨?_, binds_of_find? found⟩
    induction g using Nat.strongRecOn with
    | ind g ih =>
      cases there : h.frame? g with
      | none =>
        rw [find?_of_missing there] at found
        cases found
      | some frame =>
        cases bound : frame.binds x with
        | true =>
          rw [find?_of_binds there bound] at found
          cases found
          exact .self owner
        | false =>
          cases off : frame.outer with
          | none =>
            rw [find?_of_outermost there bound off] at found
            cases found
          | some outer =>
            rw [rooted.find?_of_outer there bound off] at found
            exact .step there bound off (ih outer (rooted.outer_lt there off) found)
  · rintro ⟨sees, frame, there, binds⟩
    induction sees with
    | self => exact find?_of_binds there binds
    | step there' unbound off _ ih =>
      rw [rooted.find?_of_outer there' unbound off]
      exact ih there

theorem rebinds_define (h : Heap) (f : FrameId) (x : Symbol) (v : Value) :
    h.Rebinds (h.define f x v) f x v := by
  refine ⟨size_define h f x v, fun g frame there => ?_⟩
  rw [frame?_define, there]
  by_cases same : f = g
  · subst same
    refine ⟨frame.put x v, if_pos rfl, rfl, ?_, fun y => ?_⟩
    · cases bound : frame.binds x with
      | true => simp [Frame.names_put_of_binds bound]
      | false => simp [Frame.names_put_of_not_binds bound]
    · simp
  · refine ⟨frame, if_neg same, rfl, ?_, fun y => ?_⟩
    · rw [if_neg fun both => same both.1.symm]
    · rw [if_neg fun both => same both.1.symm]

/-- From where the frame is seen for a symbol, the symbol is found there once it is bound. -/
theorem find?_define_of_sees (rooted : h.Rooted) (inside : f < h.size) (v : Value)
    (sees : h.Sees x g f) : (h.define f x v).find? g x = some f := by
  refine (find?_eq_some_iff (rooted.define f x v)).2 ⟨?_, ?_⟩
  · induction sees with
    | self f => exact .self f
    | @step g outer f frame there unbound off _ ih =>
      by_cases same : f = g
      · exact same ▸ .self f
      · have there' : (h.define f x v).frame? g = some frame := by
          rw [frame?_define, if_neg same, there]
        exact .step there' unbound off (ih inside)
  · obtain ⟨frame, there⟩ := exists_frame inside
    refine ⟨frame.put x v, by rw [frame?_define, if_pos rfl, there]; rfl, ?_⟩
    simp [Frame.binds]

/-- All other symbols, and the symbol from elsewhere, are found where they were. -/
theorem find?_define (rooted : h.Rooted) (v : Value) (apart : ¬ (y = x ∧ h.Sees x g f)) :
    (h.define f x v).find? g y = h.find? g y := by
  induction g using Nat.strongRecOn with
  | ind g ih =>
    have rooted' := rooted.define f x v
    cases there : h.frame? g with
    | none =>
      have missing : (h.define f x v).frame? g = none := by
        rw [frame?_define, there]
        split <;> rfl
      rw [find?_of_missing there, find?_of_missing missing]
    | some frame =>
      obtain ⟨frame', there', outer', -, bound'⟩ := (rebinds_define h f x v).frames g frame there
      have other : ¬ (g = f ∧ y = x) := by
        rintro ⟨rfl, rfl⟩
        exact apart ⟨rfl, .self g⟩
      have binds' : frame'.binds y = frame.binds y := by
        rw [Frame.binds, bound', if_neg other, Frame.binds]
      cases bound : frame.binds y with
      | true => rw [find?_of_binds there bound, find?_of_binds there' (binds'.trans bound)]
      | false =>
        cases off : frame.outer with
        | none =>
          rw [find?_of_outermost there bound off,
            find?_of_outermost there' (binds'.trans bound) (outer'.trans off)]
        | some outer =>
          rw [rooted.find?_of_outer there bound off,
            rooted'.find?_of_outer there' (binds'.trans bound) (outer'.trans off)]
          refine ih outer (rooted.outer_lt there off) fun sees => apart ⟨sees.1, ?_⟩
          exact .step there (sees.1 ▸ bound) off sees.2

theorem lookup?_define_of_sees (rooted : h.Rooted) (inside : f < h.size) (v : Value)
    (sees : h.Sees x g f) : (h.define f x v).lookup? g x = some v := by
  obtain ⟨frame, there⟩ := exists_frame inside
  rw [lookup?_eq, find?_define_of_sees rooted inside v sees, Option.bind_some, frame?_define,
    if_pos rfl, there]
  simp

theorem lookup?_define (rooted : h.Rooted) (v : Value) (apart : ¬ (y = x ∧ h.Sees x g f)) :
    (h.define f x v).lookup? g y = h.lookup? g y := by
  rw [lookup?_eq, lookup?_eq, find?_define rooted v apart]
  cases found : h.find? g y with
  | none => rfl
  | some owner =>
    have other : ¬ (owner = f ∧ y = x) := by
      rintro ⟨rfl, rfl⟩
      exact apart ⟨rfl, ((find?_eq_some_iff rooted).1 found).1⟩
    obtain ⟨frame, there, -⟩ := binds_of_find? found
    obtain ⟨frame', there', -, -, bound'⟩ := (rebinds_define h f x v).frames owner frame there
    rw [Option.bind_some, Option.bind_some, there, there', Option.bind_some, Option.bind_some,
      bound', if_neg other]

/-- Where a symbol is bound already, a new value changes nothing about where symbols are found. -/
theorem find?_define_of_binds (rooted : h.Rooted) (binds : h.Binds f x) (v : Value) (g : FrameId)
    (y : Symbol) : (h.define f x v).find? g y = h.find? g y := by
  by_cases seen : y = x ∧ h.Sees x g f
  · obtain ⟨rfl, sees⟩ := seen
    rw [find?_define_of_sees rooted binds.lt_size v sees,
      (find?_eq_some_iff rooted).2 ⟨sees, binds⟩]
  · exact find?_define rooted v seen

theorem lookup?_define_of_binds (rooted : h.Rooted) (binds : h.Binds f x) (v : Value)
    (g : FrameId) (y : Symbol) : (h.define f x v).lookup? g y =
      if y = x ∧ h.find? g x = some f then some v else h.lookup? g y := by
  have sees : h.find? g x = some f ↔ h.Sees x g f :=
    (find?_eq_some_iff rooted).trans (and_iff_left binds)
  split
  · rename_i found
    obtain ⟨rfl, found⟩ := found
    exact lookup?_define_of_sees rooted binds.lt_size v (sees.1 found)
  · rename_i apart
    exact lookup?_define rooted v fun seen => apart ⟨seen.1, sees.2 seen.2⟩

end Heap

/-- The operations on frames. -/
inductive FrameStep where
  | extend (f : FrameId)
  | define (f : FrameId) (x : Symbol) (v : Value)
  | update (f : FrameId) (bindings : List (Symbol × Value))
  | assign (f : FrameId) (x : Symbol) (v : Value)

namespace FrameStep

/-- The frame that an operation starts from. -/
def frame : FrameStep → FrameId
  | extend f | define f _ _ | update f _ | assign f _ _ => f

/-- Does an operation. -/
def run : FrameStep → EvalM Unit
  | extend f => do let _ ← EvalM.newFrame (some f)
  | define f x v => EvalM.define f x v
  | update f bindings => EvalM.defineAll f bindings
  | assign f x v => do let _ ← EvalM.assign f x v

end FrameStep

namespace World

/-- The states that come from one frame without bindings by operations on frames that there are. An
assignment that fails is an operation as well. -/
inductive Framed : World → Prop
  | root : Framed ((EvalM.newFrame none).runFrom World.initial).2
  | step {w : World} (s : FrameStep) : Framed w → s.frame < w.heap.size →
    Framed (s.run.runFrom w).2

theorem rooted_defineAll {w : World} (rooted : w.heap.Rooted) (f : FrameId)
    (bindings : List (Symbol × Value)) :
    ((EvalM.defineAll f bindings).runFrom w).2.heap.Rooted := by
  induction bindings generalizing w with
  | nil => exact rooted
  | cons entry bindings ih =>
    have bound : (w.heap.define f entry.1 entry.2).Rooted := rooted.define f entry.1 entry.2
    exact ih (w := { w with heap := w.heap.define f entry.1 entry.2 }) bound

theorem Framed.rooted {w : World} (framed : w.Framed) : w.heap.Rooted := by
  induction framed with
  | root =>
    have empty : Heap.empty.Rooted := fun g frame there => by
      simp [Heap.frame?, Heap.empty] at there
    exact empty.extend rfl
  | @step w s _ inside rooted =>
    cases s with
    | extend f => exact rooted.extend inside
    | define f x v => exact rooted.define f x v
    | update f bindings => exact rooted_defineAll rooted f bindings
    | assign f x v =>
      unfold FrameStep.run
      cases found : w.heap.find? f x with
      | some owner =>
        rw [EvalM.runFrom_bind_ok (EvalM.runFrom_assign_of_some found v)]
        exact rooted.define owner x v
      | none =>
        rw [EvalM.runFrom_bind_error (EvalM.runFrom_assign_of_none found v)]
        exact rooted

end World

/-- Frames obey the laws of lexical scope, whatever operations have made them. A symbol is found in
the nearest frame that binds it, and its value is the one that it has there; it has none just when
it is found nowhere. An assignment to a symbol that is found nowhere fails and changes nothing. Any
other changes the one binding in the frame in which the symbol is found: nothing is found elsewhere
than before, and the value is a new one just where the symbol is found in that frame. A definition
changes the one binding in its own frame: the symbol has the new value from where that frame is seen
before any other that binds it, and all else is found where it was, with the value that it had. -/
theorem frames_lexical (w : World) (framed : w.Framed) :
    (∀ g x,
      (∀ owner, w.heap.find? g x = some owner ↔ w.heap.Sees x g owner ∧ w.heap.Binds owner x) ∧
      (∀ owner, w.heap.find? g x = some owner → ∃ frame v, w.heap.frame? owner = some frame ∧
        frame.get? x = some v ∧ (EvalM.lookup g x).runFrom w = (.ok v, w)) ∧
      (w.heap.find? g x = none →
        (EvalM.lookup g x).runFrom w = (.error (.error (.undefinedSymbol x.name)), w))) ∧
    (∀ f x v,
      (w.heap.find? f x = none →
        (EvalM.assign f x v).runFrom w = (.error (.error (.unboundAssignment x.name)), w)) ∧
      ∀ owner, w.heap.find? f x = some owner → ∃ h',
        (EvalM.assign f x v).runFrom w = (.ok owner, { w with heap := h' }) ∧
        w.heap.Rebinds h' owner x v ∧ (∀ g y, h'.find? g y = w.heap.find? g y) ∧
        ∀ g y, h'.lookup? g y =
          if y = x ∧ w.heap.find? g x = some owner then some v else w.heap.lookup? g y) ∧
    ∀ f x v, f < w.heap.size → ∃ h',
      (EvalM.define f x v).runFrom w = (.ok (), { w with heap := h' }) ∧
      w.heap.Rebinds h' f x v ∧
      (∀ g, w.heap.Sees x g f → h'.find? g x = some f ∧ h'.lookup? g x = some v) ∧
      ∀ g y, ¬ (y = x ∧ w.heap.Sees x g f) →
        h'.find? g y = w.heap.find? g y ∧ h'.lookup? g y = w.heap.lookup? g y := by
  have rooted := framed.rooted
  refine ⟨fun g x => ⟨fun owner => Heap.find?_eq_some_iff rooted, ?_, ?_⟩,
    fun f x v => ⟨fun missing => EvalM.runFrom_assign_of_none missing v, ?_⟩, ?_⟩
  · intro owner found
    obtain ⟨frame, there, binds⟩ := Heap.binds_of_find? found
    obtain ⟨v, bound⟩ := Option.isSome_iff_exists.1 binds
    refine ⟨frame, v, there, bound, EvalM.runFrom_lookup_of_some ?_⟩
    rw [Heap.lookup?_eq, found, Option.bind_some, there, Option.bind_some, bound]
  · intro missing
    refine EvalM.runFrom_lookup_of_none ?_
    rw [Heap.lookup?_eq, missing, Option.bind_none]
  · intro owner found
    have binds : w.heap.Binds owner x := Heap.binds_of_find? found
    exact ⟨w.heap.define owner x v, EvalM.runFrom_assign_of_some found v,
      w.heap.rebinds_define owner x v, w.heap.find?_define_of_binds rooted binds v,
      w.heap.lookup?_define_of_binds rooted binds v⟩
  · intro f x v inside
    refine ⟨w.heap.define f x v, rfl, w.heap.rebinds_define f x v, fun g sees => ?_,
      fun g y apart => ?_⟩
    · exact ⟨Heap.find?_define_of_sees rooted inside v sees,
        Heap.lookup?_define_of_sees rooted inside v sees⟩
    · exact ⟨Heap.find?_define rooted v apart, Heap.lookup?_define rooted v apart⟩

/-- The root frame binds `x`. Two frames hang off it, and a fourth off the first of them. From that
fourth frame the assignment finds the root frame, and the definition in the frame between is seen
first. From the other frame the definition is not seen. -/
theorem frames_lexical_shadowing :
    let x : Symbol := ⟨"x"⟩
    let value (n : Int) := Value.number (.int n)
    let w : World :=
      ⟨⟨#[⟨none, [(x, value 1)]⟩, ⟨some 0, []⟩, ⟨some 0, []⟩, ⟨some 1, []⟩]⟩, 0, #[]⟩
    w.Framed ∧ w.heap.Sees x 3 1 ∧ ¬ w.heap.Sees x 2 1 ∧ w.heap.Sees x 3 0 ∧
      (∃ h', (EvalM.assign 3 x (value 2)).runFrom w = (.ok 0, { w with heap := h' }) ∧
        h'.find? 3 x = some 0 ∧ h'.lookup? 2 x = some (value 2)) ∧
      ∃ h', (EvalM.define 1 x (value 3)).runFrom w = (.ok (), { w with heap := h' }) ∧
        h'.lookup? 3 x = some (value 3) ∧ h'.lookup? 2 x = some (value 1) := by
  intro x value w
  have bound := World.Framed.root.step (.define 0 x (value 1)) Nat.one_pos
  have first := bound.step (.extend 0) Nat.one_pos
  have second := first.step (.extend 0) Nat.two_pos
  have framed : w.Framed := second.step (.extend 1) (Nat.lt_add_left 1 Nat.one_lt_two)
  have near : w.heap.Sees x 3 1 := .step rfl rfl rfl (.self 1)
  have far : ¬ w.heap.Sees x 2 1 := by
    rintro (_ | ⟨there, -, off, sees⟩)
    cases there
    cases off
    rcases sees with _ | ⟨there, unbound, -, -⟩
    cases there
    cases unbound
  obtain ⟨lookups, assigns, defines⟩ := frames_lexical w framed
  have found : w.heap.find? 3 x = some 0 := rfl
  obtain ⟨h', assigned, -, places, values⟩ := (assigns 3 x (value 2)).2 0 found
  obtain ⟨h'', defined, -, seen, kept⟩ := defines 1 x (value 3) (Nat.lt_add_left 2 Nat.one_lt_two)
  refine ⟨framed, near, far, ((lookups 3 x).1 0 |>.1 found).1, ⟨h', assigned, ?_, ?_⟩, h'',
    defined, (seen 3 near).2, ?_⟩
  · rw [places, found]
  · rw [values]
    rfl
  · exact (kept 2 x fun both => far both.2).2

end SmallLisp
