import Mathlib.Data.List.Induction
import SmallLisp.Eval.Call
import SmallLisp.Proofs.Eval.Bounds
import SmallLisp.Proofs.State.Discipline
import SmallLisp.Proofs.State.Frames

/-!
# Binding arguments

A call binds its arguments to the parameters in front of the rest marker, one after the other, and
then the marker, if there is one, to the list of all arguments that are left. Main statements: how
the parameters in front of the marker take their arguments (`runFrom_bindParameters_append`,
`runFrom_bindParameters_short`), what a frame binds after a row of bindings (`names_putAll`,
`get?_putAll`), and so that a call of any function binds its arguments exactly (`arguments_bound`).
-/

namespace SmallLisp

/-! ## Rows of bindings -/

namespace Frame

/-- The frame with symbols bound to values one after the other. -/
def putAll (f : Frame) (bindings : List (Symbol × Value)) : Frame :=
  bindings.foldl (fun f entry => f.put entry.1 entry.2) f

@[simp] theorem putAll_append (f : Frame) (bindings : List (Symbol × Value)) (x : Symbol)
    (v : Value) : f.putAll (bindings ++ [(x, v)]) = (f.putAll bindings).put x v := by
  simp [putAll]

theorem outer_putAll (f : Frame) (bindings : List (Symbol × Value)) :
    (f.putAll bindings).outer = f.outer := by
  induction bindings using List.reverseRecOn with
  | nil => rfl
  | append_singleton bindings entry ih => rw [putAll_append, outer_put, ih]

/-- The names of a new frame are those of the row, each where it first occurs. -/
theorem names_putAll (outer : Option FrameId) (bindings : List (Symbol × Value)) :
    (putAll ⟨outer, []⟩ bindings).names = (bindings.map Prod.fst).eraseDups := by
  induction bindings using List.reverseRecOn with
  | nil => rfl
  | append_singleton bindings entry ih =>
    obtain ⟨x, v⟩ := entry
    rw [putAll_append, List.map_append, List.eraseDups_append, ← ih]
    cases bound : (putAll ⟨outer, []⟩ bindings).binds x with
    | true =>
      have member : x ∈ bindings.map Prod.fst := by
        rw [binds_iff, ih, List.mem_eraseDups] at bound
        exact bound
      rw [names_put_of_binds bound]
      simp [List.removeAll, member]
    | false =>
      have fresh : x ∉ bindings.map Prod.fst := by
        rw [← Bool.not_eq_true, binds_iff, ih, List.mem_eraseDups] at bound
        exact bound
      rw [names_put_of_not_binds bound]
      simp [List.removeAll, fresh, List.eraseDups_cons]

/-- A symbol has the value that the row binds it to last. -/
theorem get?_putAll (f : Frame) {bindings : List (Symbol × Value)} {i : Nat} {x : Symbol}
    {v : Value} (there : bindings[i]? = some (x, v))
    (last : ∀ j, i < j → ∀ w, bindings[j]? ≠ some (x, w)) : (f.putAll bindings).get? x = some v := by
  induction bindings using List.reverseRecOn with
  | nil => cases there
  | append_singleton bindings entry ih =>
    obtain ⟨y, w⟩ := entry
    rw [putAll_append, get?_put]
    rcases Nat.lt_or_ge i bindings.length with inside | behind
    · have other : x ≠ y := by
        rintro rfl
        exact last bindings.length inside w (by simp)
      rw [if_neg other]
      rw [List.getElem?_append_left inside] at there
      refine ih there fun j later u found => last j later u ?_
      rw [List.getElem?_append_left (List.getElem?_eq_some_iff.1 found).1, found]
    · rw [List.getElem?_append_right behind, List.getElem?_singleton] at there
      split at there
      · cases there
        rw [if_pos rfl]
      · cases there

end Frame

namespace World

/-- The state with symbols bound to values in a frame one after the other. -/
def bindRow (w : World) (f : FrameId) (bindings : List (Symbol × Value)) : World :=
  bindings.foldl (fun w entry => w.bind f entry.1 entry.2) w

@[simp] theorem bindRow_cons (w : World) (f : FrameId) (x : Symbol) (v : Value)
    (bindings : List (Symbol × Value)) :
    w.bindRow f ((x, v) :: bindings) = (w.bind f x v).bindRow f bindings := rfl

theorem frame?_bindRow (w : World) (f g : FrameId) (bindings : List (Symbol × Value)) :
    (w.bindRow f bindings).heap.frame? g =
      if f = g then (w.heap.frame? g).map (·.putAll bindings) else w.heap.frame? g := by
  induction bindings generalizing w with
  | nil => simp [bindRow, Frame.putAll]
  | cons entry bindings ih =>
    obtain ⟨x, v⟩ := entry
    rw [bindRow_cons, ih]
    show (if f = g then ((w.heap.define f x v).frame? g).map _ else _) = _
    rw [Heap.frame?_define]
    split
    · simp [Frame.putAll, Function.comp_def]
    · exact (Heap.frame?_define ..).trans (if_neg ‹_›)

theorem fresh_bindRow (w : World) (f : FrameId) (bindings : List (Symbol × Value)) :
    (w.bindRow f bindings).fresh = w.fresh := by
  induction bindings generalizing w with
  | nil => rfl
  | cons entry bindings ih => exact (ih _).trans rfl

theorem printed_bindRow (w : World) (f : FrameId) (bindings : List (Symbol × Value)) :
    (w.bindRow f bindings).printed = w.printed := by
  induction bindings generalizing w with
  | nil => rfl
  | cons entry bindings ih => exact (ih _).trans rfl

end World

/-! ## Parameters -/

/-- The parameters are the named ones, and, if there is a rest marker, the marker and anything else
behind them. -/
inductive Symbol.Splits (named : List Symbol) : Bool → List Symbol → Prop
  | plain (unmarked : ellipsis ∉ named) : Splits named false named
  | marked (unmarked : ellipsis ∉ named) (after : List Symbol) :
      Splits named true (named ++ ellipsis :: after)

theorem Symbol.exists_splits (params : List Symbol) : ∃ named rest, Splits named rest params := by
  induction params with
  | nil => exact ⟨[], false, .plain List.not_mem_nil⟩
  | cons x params ih =>
    by_cases marker : x = ellipsis
    · subst marker
      exact ⟨[], true, .marked List.not_mem_nil params⟩
    · obtain ⟨named, rest, splits⟩ := ih
      have unmarked (others : ellipsis ∉ named) : ellipsis ∉ x :: named := by
        simp [others, Ne.symm marker]
      cases splits with
      | plain others => exact ⟨x :: params, false, .plain (unmarked others)⟩
      | marked others after => exact ⟨x :: named, true, .marked (unmarked others) after⟩

/-- Behind the named parameters there is nothing, or the marker comes first. -/
theorem Symbol.Splits.others {named params : List Symbol} {rest : Bool}
    (splits : Splits named rest params) : ellipsis ∉ named ∧ ∃ others, params = named ++ others ∧
      ((rest = false ∧ others = []) ∨ rest = true ∧ ∃ after, others = ellipsis :: after) := by
  cases splits with
  | plain unmarked => exact ⟨unmarked, [], (List.append_nil _).symm, .inl ⟨rfl, rfl⟩⟩
  | marked unmarked after => exact ⟨unmarked, _, rfl, .inr ⟨rfl, after, rfl⟩⟩

namespace Machine

variable {f : FrameId} {tooFew : Error} {named : List Symbol} {args : List Value}

/-- The parameters in front of the rest marker take the first arguments. -/
theorem runFrom_bindParameters_append (unmarked : Symbol.ellipsis ∉ named)
    (enough : named.length ≤ args.length) (others : List Symbol) (w : World) :
    (bindParameters f tooFew (named ++ others) args).runFrom w =
      (bindParameters f tooFew others (args.drop named.length)).runFrom
        (w.bindRow f (named.zip args)) := by
  induction named generalizing args w with
  | nil => rfl
  | cons x named ih =>
    cases args with
    | nil => cases enough
    | cons a args =>
      rw [List.mem_cons, not_or] at unmarked
      rw [List.cons_append, bindParameters, if_neg (Ne.symm unmarked.1)]
      exact ih unmarked.2 (Nat.le_of_succ_le_succ enough) (w.bind f x a)

/-- If the arguments come to an end before these parameters do, binding fails. -/
theorem runFrom_bindParameters_short (unmarked : Symbol.ellipsis ∉ named)
    (short : args.length < named.length) (others : List Symbol) (w : World) :
    (bindParameters f tooFew (named ++ others) args).runFrom w =
      (.error (.error tooFew), w.bindRow f (named.zip args)) := by
  induction named generalizing args w with
  | nil => cases short
  | cons x named ih =>
    rw [List.mem_cons, not_or] at unmarked
    cases args with
    | nil =>
      rw [List.cons_append, bindParameters, if_neg (Ne.symm unmarked.1)]
      rfl
    | cons a args =>
      rw [List.cons_append, bindParameters, if_neg (Ne.symm unmarked.1)]
      exact ih unmarked.2 (Nat.lt_of_succ_lt_succ short) (w.bind f x a)

/-- What binding the row leaves behind if there is a rest marker, which takes the arguments behind
the row. -/
def bindRest (f : FrameId) (rest : Bool) (left : List Value) (w : World) : World :=
  if rest then (w.advance left.length).bind f .ellipsis (.ofList w.fresh left) else w

theorem frame?_bindRest (f g : FrameId) (rest : Bool) (left : List Value) (w : World) :
    (bindRest f rest left w).heap.frame? g =
      if f = g ∧ rest = true then
        (w.heap.frame? g).map (·.put .ellipsis (.ofList w.fresh left))
      else w.heap.frame? g := by
  cases rest with
  | false => simp [bindRest]
  | true =>
    simp only [and_true]
    exact Heap.frame?_define w.heap f g .ellipsis _

@[simp] theorem printed_bindRest (f : FrameId) (rest : Bool) (left : List Value) (w : World) :
    (bindRest f rest left w).printed = w.printed := by
  cases rest <;> rfl

/-- A call has a new frame. The named parameters are bound in it, as far as there are arguments for
them, and then the marker, if there is an argument for each of the others. -/
theorem runFrom_openFrame {header : ClosureHeader} {rest : Bool}
    (splits : Symbol.Splits named rest header.params) (args : List Value) (w : World) :
    (openFrame header args).runFrom w =
      let row := (w.extend (some header.env)).bindRow w.heap.size (named.zip args)
      if args.length < named.length then
        (.error (.error (.missingArguments (calleeName header.name) (requiredCount header.params)
          args.length)), row)
      else (.ok w.heap.size, bindRest w.heap.size rest (args.drop named.length) row) := by
  rw [openFrame, EvalM.runFrom_bind_ok (EvalM.run_newFrame w (some header.env))]
  obtain ⟨unmarked, others, whole, behind⟩ := splits.others
  split
  · rename_i short
    refine EvalM.runFrom_bind_error ?_ _
    rw [whole]
    exact runFrom_bindParameters_short unmarked short others _
  · rename_i enough
    refine (EvalM.runFrom_bind_ok (a := ()) ?_ _).trans rfl
    rw [whole, runFrom_bindParameters_append unmarked (Nat.le_of_not_lt enough)]
    rcases behind with ⟨rfl, rfl⟩ | ⟨rfl, after, rfl⟩
    · rfl
    · rw [bindParameters.eq_def]
      dsimp only
      rw [if_pos rfl]
      rfl

end Machine

/-- The frame hangs off the one in which the function was made. It has the distinct names of the
parameters in the order in which they first occur, then the rest marker if there is one. Each
parameter has the argument at the last place where it occurs, and the marker the list of all
arguments behind those of the parameters. -/
structure Frame.BindsArguments (frame : Frame) (env : FrameId) (named : List Symbol) (rest : Bool)
    (args : List Value) (fresh : Nat) : Prop where
  outer : frame.outer = some env
  names : frame.names = named.eraseDups ++ if rest then [Symbol.ellipsis] else []
  last : ∀ (i : Nat) (x : Symbol), named[i]? = some x →
    (∀ j : Nat, i < j → named[j]? ≠ some x) →
    frame.get? x = args[i]?
  others : rest = true →
    frame.get? .ellipsis = some (Value.ofList fresh (args.drop named.length))

namespace Machine

variable {named : List Symbol} {args : List Value}

/-- The bindings of the named parameters are those of a row. -/
theorem bindsArguments_row (enough : named.length ≤ args.length) (env : FrameId) (fresh : Nat) :
    Frame.BindsArguments (.putAll ⟨some env, []⟩ (named.zip args)) env named false args fresh := by
  have keys : (named.zip args).map Prod.fst = named := List.map_fst_zip enough
  refine ⟨Frame.outer_putAll .., ?_, fun i x there last => ?_, nofun⟩
  · rw [Frame.names_putAll, keys]
    simp
  · have inside : i < args.length :=
      Nat.lt_of_lt_of_le (List.getElem?_eq_some_iff.1 there).1 enough
    rw [List.getElem?_eq_getElem inside]
    refine Frame.get?_putAll _ (i := i) ?_ fun j later v found => ?_
    · rw [List.getElem?_zip_eq_some]
      exact ⟨there, List.getElem?_eq_getElem inside⟩
    · exact last j later (List.getElem?_zip_eq_some.1 found).1

/-- The marker is a name of its own. -/
theorem bindsArguments_rest (unmarked : Symbol.ellipsis ∉ named)
    (enough : named.length ≤ args.length) (env : FrameId) (fresh : Nat) :
    Frame.BindsArguments ((Frame.putAll ⟨some env, []⟩ (named.zip args)).put .ellipsis
      (.ofList fresh (args.drop named.length))) env named true args fresh := by
  have row := bindsArguments_row enough env fresh
  have unbound : (Frame.putAll ⟨some env, []⟩ (named.zip args)).binds .ellipsis = false := by
    rw [← Bool.not_eq_true, Frame.binds_iff, row.names]
    simpa using unmarked
  refine ⟨row.outer, ?_, fun i x there last => ?_, fun _ => by rw [Frame.get?_put, if_pos rfl]⟩
  · rw [Frame.names_put_of_not_binds unbound, row.names]
    simp
  · have other : x ≠ .ellipsis := by
      rintro rfl
      exact unmarked (List.mem_of_getElem? there)
    rw [Frame.get?_put, if_neg other, row.last i x there last]

/-- Bindings in a new frame touch no other. -/
theorem row_untouched (env : FrameId) (bindings : List (Symbol × Value)) {w : World} {g : FrameId}
    {frame : Frame} (there : w.heap.frame? g = some frame) :
    ((w.extend (some env)).bindRow w.heap.size bindings).heap.frame? g = some frame := by
  have older : g ≠ w.heap.size := Nat.ne_of_lt (Heap.lt_size_of_frame? there)
  rw [World.frame?_bindRow, if_neg older.symm]
  exact (Heap.frame?_extend ..).trans ((if_neg older).trans there)

/-- With too few arguments, binding fails. -/
theorem openFrame_short {header : ClosureHeader} {rest : Bool}
    (splits : Symbol.Splits named rest header.params) (short : args.length < named.length)
    (w : World) : ∃ w', (openFrame header args).runFrom w =
        (.error (.error (.missingArguments (calleeName header.name) (requiredCount header.params)
          args.length)), w') ∧
      w'.printed = w.printed ∧
      ∀ g frame, w.heap.frame? g = some frame → w'.heap.frame? g = some frame :=
  ⟨_, (runFrom_openFrame splits args w).trans (if_pos short), World.printed_bindRow ..,
    fun _ _ there => row_untouched header.env _ there⟩

/-- With enough arguments, the new frame binds the parameters. -/
theorem openFrame_enough {header : ClosureHeader} {rest : Bool}
    (splits : Symbol.Splits named rest header.params) (enough : named.length ≤ args.length)
    (w : World) : ∃ w' frame, (openFrame header args).runFrom w = (.ok w.heap.size, w') ∧
      w'.printed = w.printed ∧
      (∀ g old, w.heap.frame? g = some old → w'.heap.frame? g = some old) ∧
      w'.heap.frame? w.heap.size = some frame ∧
      frame.BindsArguments header.env named rest args w.fresh := by
  have bound : ((w.extend (some header.env)).bindRow w.heap.size (named.zip args)).heap.frame?
      w.heap.size = some (.putAll ⟨some header.env, []⟩ (named.zip args)) := by
    rw [World.frame?_bindRow, if_pos rfl]
    show ((w.heap.extend _).frame? _).map _ = _
    rw [Heap.frame?_extend, if_pos rfl]
    rfl
  have run := (runFrom_openFrame splits args w).trans (if_neg (Nat.not_lt_of_le enough))
  have made : ∃ frame, (bindRest w.heap.size rest (args.drop named.length)
      ((w.extend (some header.env)).bindRow w.heap.size (named.zip args))).heap.frame?
        w.heap.size = some frame ∧ frame.BindsArguments header.env named rest args w.fresh := by
    rw [frame?_bindRest, bound, World.fresh_bindRow]
    cases rest with
    | false => exact ⟨_, if_neg (by simp), bindsArguments_row enough header.env w.fresh⟩
    | true =>
      exact ⟨_, if_pos ⟨rfl, rfl⟩, bindsArguments_rest splits.others.1 enough header.env w.fresh⟩
  obtain ⟨frame, there, binds⟩ := made
  refine ⟨_, frame, run, ?_, fun g old there => ?_, there, binds⟩
  · rw [printed_bindRest, World.printed_bindRow]
    rfl
  · have older : g ≠ w.heap.size := Nat.ne_of_lt (Heap.lt_size_of_frame? there)
    rw [frame?_bindRest, if_neg fun both => older both.1.symm]
    exact row_untouched header.env _ there

/-- Arguments are bound exactly. Binding them to the parameters of a function fails, with an error
about their number, just when there are fewer than named parameters in front of the rest marker.
Otherwise it makes a frame that was not there before, which binds these parameters and the marker
and nothing else, so that arguments for which there is no parameter are dropped if there is no
marker. In both cases all frames that were there are as they were. -/
theorem arguments_bound (header : ClosureHeader) (named : List Symbol) (rest : Bool)
    (splits : Symbol.Splits named rest header.params) (args : List Value) (w : World) :
    ∃ r w', (openFrame header args).runFrom w = (r, w') ∧ w'.printed = w.printed ∧
      (∀ g frame, w.heap.frame? g = some frame → w'.heap.frame? g = some frame) ∧
      ((∃ e, r = .error (.error e) ∧ e.kind = .arityMismatch) ↔ args.length < named.length) ∧
      (named.length ≤ args.length → r = .ok w.heap.size ∧ w.heap.frame? w.heap.size = none ∧
        ∃ frame, w'.heap.frame? w.heap.size = some frame ∧
          frame.BindsArguments header.env named rest args w.fresh) := by
  have missing : w.heap.frame? w.heap.size = none := (w.heap.frame?_eq_none_iff _).2 (Nat.le_refl _)
  rcases Nat.lt_or_ge args.length named.length with short | enough
  · obtain ⟨w', run, printed, untouched⟩ := openFrame_short splits short w
    refine ⟨_, w', run, printed, untouched, iff_of_true ⟨_, rfl, rfl⟩ short, fun enough => ?_⟩
    exact absurd short (Nat.not_lt_of_le enough)
  · obtain ⟨w', frame, run, printed, untouched, there, binds⟩ := openFrame_enough splits enough w
    refine ⟨_, w', run, printed, untouched, iff_of_false ?_ (Nat.not_lt_of_le enough),
      fun _ => ⟨rfl, missing, frame, there, binds⟩⟩
    rintro ⟨e, failed, -⟩
    cases failed

/-- Parameters of which one occurs twice and one stands behind the rest marker. Two arguments are
too few for them, and of five the last two are the rest. -/
theorem arguments_bound_repeated :
    let x : Symbol := ⟨"x"⟩
    let y : Symbol := ⟨"y"⟩
    let value (n : Int) := Value.number (.int n)
    let header : ClosureHeader := ⟨0, [x, y, x, .ellipsis, y], 0, none⟩
    let w : World := ⟨⟨#[⟨none, []⟩]⟩, 1, #[]⟩
    let five := [value 1, value 2, value 3, value 4, value 5]
    Symbol.Splits [x, y, x] true header.params ∧
      (∃ e w', (openFrame header [value 1, value 2]).runFrom w = (.error (.error e), w') ∧
        e.kind = .arityMismatch) ∧
      ∃ w' frame, (openFrame header five).runFrom w = (.ok 1, w') ∧
        w'.heap.frame? 1 = some frame ∧ frame.names = [x, y, .ellipsis] ∧
        frame.get? x = some (value 3) ∧
        frame.get? .ellipsis = some (Value.ofList 1 [value 4, value 5]) := by
  intro x y value header w five
  have splits : Symbol.Splits [x, y, x] true header.params := .marked (by decide) [y]
  obtain ⟨r, w₁, run, -, -, fails, -⟩ :=
    arguments_bound header [x, y, x] true splits [value 1, value 2] w
  obtain ⟨e, rfl, kind⟩ := fails.2 (by decide)
  obtain ⟨r', w₂, run', -, -, -, binds⟩ := arguments_bound header [x, y, x] true splits five w
  obtain ⟨rfl, -, frame, there, bound⟩ := binds (by decide)
  have last : ∀ j, 2 < j → [x, y, x][j]? ≠ some x := by
    intro j later
    rw [List.getElem?_eq_none later]
    exact nofun
  refine ⟨splits, ⟨e, w₁, run, kind⟩, w₂, frame, run', there, ?_, bound.last 2 x rfl last,
    bound.others rfl⟩
  rw [bound.names]
  decide

end Machine

end SmallLisp
